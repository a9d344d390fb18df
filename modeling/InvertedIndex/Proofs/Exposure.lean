/-
This file proves what making and removing preindexes can do to files that were there before. A
new preindex takes a name under which the file of the terms can be created. If one of the other
two cannot be created, all three names are removed, and with them a file that lay under one of
these two. So files may get lost, but only where a preindex may be made, and whoever owns
preindexes still owns them after that.
-/

import InvertedIndex.Proofs.Cleanup
import InvertedIndex.Proofs.Possessions

namespace InvertedIndex

open FileSystem

/-! ### The names of preindexes -/

namespace PreindexFiles

variable {files : FileSystem} {owned other : PreindexFiles} {first second : String}
  {location elsewhere : Location}

/-- The extensions of the three files. -/
def extensions : List String := ["words", "counts", "docs"]

theorem exists_extension {path : Path} (member : path ∈ owned.all) :
    ∃ extension ∈ extensions, path = owned.path extension := by
  have each : ∀ path ∈ owned.all, ∃ extension ∈ extensions, path = owned.path extension :=
    forall_all.mpr ⟨⟨"words", by decide, rfl⟩, ⟨"counts", by decide, rfl⟩, ⟨"docs", by decide, rfl⟩⟩
  exact each path member

/-- The name of a file of a preindex tells its stem and its extension. -/
theorem name_injective {stem otherStem : String} (isFirst : first ∈ extensions)
    (isSecond : second ∈ extensions) (same : stem ++ "." ++ first = otherStem ++ "." ++ second) :
    stem = otherStem ∧ first = second := by
  -- The letter before the last one is another one in each extension.
  have extension : first = second := by
    have letters := congrArg (fun name => name.toList.reverse.take 2) same
    simp only [String.toList_append, List.reverse_append] at letters
    simp only [extensions, List.mem_cons, List.not_mem_nil, or_false] at isFirst isSecond
    rcases isFirst with rfl | rfl | rfl <;> rcases isSecond with rfl | rfl | rfl <;>
      first | rfl | exact absurd letters (by simp)
  subst extension
  rw [String.append_left_inj, String.append_left_inj] at same
  exact ⟨same, rfl⟩

/-- The files of a preindex lie side by side. -/
theorem beside (names : Names files (owned.path first) location)
    (otherNames : Names files (owned.path second) elsewhere) :
    elsewhere = (owned.stem ++ "." ++ second) :: location.tail := by
  have leads := names.leads
  have otherLeads := otherNames.leads
  rw [path, Path.child, List.dropLast_concat] at leads otherLeads
  have holder : location.tail = elsewhere.tail :=
    Except.ok.inj (leads.symm.trans otherLeads)
  rw [holder, ← otherNames.headD_of_child, otherNames.cons_eq]

end PreindexFiles

/-- The preindex that is made in a directory of a name that the system hands out. -/
def World.preindexNamed (world : World) (directory : Path) (draw : Nat) : PreindexFiles where
  directory := directory.fromRoot world.files.workingDirectory
  stem := "preindex-" ++ world.stems draw

/-- The preindex has a name that the system hands out. -/
def World.Offers (world : World) (directory : Path) (owned : PreindexFiles) : Prop :=
  ∃ draw, owned = world.preindexNamed directory draw

/-- Where a name is free for the file of the terms, nothing is under the two names beside it. -/
def World.Unclaimed (world : World) (directory : Path) : Prop :=
  ∀ draw, world.files.Free (world.preindexNamed directory draw).words →
    ∀ path ∈ (world.preindexNamed directory draw).all, ∀ location,
      Names world.files path location → world.files.lookup location = none

namespace World

variable {start world between after : World} {directory : Path} {location : Location}

/-- A location under one of the three names that a new preindex may take. -/
def Exposes (world : World) (directory : Path) (location : Location) : Prop :=
  ∃ draw, world.files.Free (world.preindexNamed directory draw).words ∧
    ∃ path ∈ (world.preindexNamed directory draw).all, Names world.files path location

theorem Unclaimed.lookup_eq_none (unclaimed : world.Unclaimed directory)
    (exposed : world.Exposes directory location) : world.files.lookup location = none := by
  obtain ⟨draw, free, path, member, names⟩ := exposed
  exact unclaimed draw free path member location names

/-- Nothing but lookups at these locations decides it. -/
theorem Unclaimed.of_exposes (nothing : ∀ location, world.Exposes directory location →
    world.files.lookup location = none) : world.Unclaimed directory :=
  fun draw free path member location names => nothing location ⟨draw, free, path, member, names⟩

theorem preindexNamed_eq (stems : after.stems = world.stems)
    (same : SameDirectories world.files after.files) (draw : Nat) :
    after.preindexNamed directory draw = world.preindexNamed directory draw := by
  rw [preindexNamed, preindexNamed, stems, same.workingDirectory]

/-- A name that may be taken could be taken before, if every place that is free for a file of
terms was free. -/
theorem Exposes.of_free (exposed : after.Exposes directory location)
    (stems : after.stems = world.stems) (same : SameDirectories world.files after.files)
    (wasFree : ∀ draw first, Names world.files (world.preindexNamed directory draw).words first →
      after.files.lookup first = none → world.files.lookup first = none) :
    world.Exposes directory location := by
  obtain ⟨draw, ⟨first, firstNames, nothing⟩, path, member, names⟩ := exposed
  rw [preindexNamed_eq stems same] at firstNames member
  have wasNames := firstNames.of_sameDirectories same.symm
  exact ⟨draw, ⟨first, wasNames, wasFree draw first wasNames nothing⟩, path, member,
    names.of_sameDirectories same.symm⟩

/-- The places of a preindex under a name that the system hands out may be taken as long as the
place of its terms is free. -/
theorem Offers.exposes {owned : PreindexFiles} {place : Placement}
    (offered : world.Offers directory owned) (isAt : owned.At place world.files)
    (free : world.files.lookup place.words = none) (member : location ∈ place.all) :
    world.Exposes directory location := by
  obtain ⟨draw, rfl⟩ := offered
  obtain ⟨path, isPath, names⟩ := isAt.exists_path location member
  exact ⟨draw, ⟨place.words, isAt.words, free⟩, path, isPath, names⟩

/-- Files were lost where a preindex may be made, and nothing else has changed. -/
structure Thinned (directory : Path) (start after : World) : Prop where
  stems : after.stems = start.stems
  directories : SameDirectories start.files after.files
  each : ∀ location, after.files.lookup location = start.files.lookup location ∨
    after.files.lookup location = none ∧ start.Exposes directory location

namespace Thinned

theorem refl (directory : Path) (world : World) : Thinned directory world world :=
  ⟨rfl, .refl _, fun _ => .inl rfl⟩

/-- No file of terms is lost: where its name is free nothing was before. -/
theorem lookup_words (thinned : Thinned directory start after) {draw : Nat}
    (names : Names start.files (start.preindexNamed directory draw).words location)
    (nothing : after.files.lookup location = none) : start.files.lookup location = none := by
  rcases thinned.each location with same | ⟨-, other, ⟨first, firstNames, firstFree⟩, path, member,
    pathNames⟩
  · rw [← same, nothing]
  · obtain ⟨extension, isExtension, rfl⟩ := PreindexFiles.exists_extension member
    obtain ⟨sameStem, rfl⟩ := PreindexFiles.name_injective isExtension
      (show "words" ∈ PreindexFiles.extensions by decide)
      (pathNames.headD_of_child.symm.trans names.headD_of_child)
    rw [pathNames.unique firstNames, firstFree]

/-- What may be taken for a preindex could be taken before. -/
theorem exposes (thinned : Thinned directory start after)
    (exposed : after.Exposes directory location) : start.Exposes directory location :=
  exposed.of_free thinned.stems thinned.directories fun _ _ => thinned.lookup_words

theorem trans (first : Thinned directory start between)
    (second : Thinned directory between after) : Thinned directory start after where
  stems := second.stems.trans first.stems
  directories := first.directories.trans second.directories
  each location := by
    rcases second.each location with same | ⟨gone, exposed⟩
    · rw [same]
      exact first.each location
    · exact .inr ⟨gone, first.exposes exposed⟩

/-- Where no name is claimed nothing can be lost. -/
theorem lookup_eq (thinned : Thinned directory start after)
    (unclaimed : start.Unclaimed directory) (location : Location) :
    after.files.lookup location = start.files.lookup location := by
  rcases thinned.each location with same | ⟨gone, exposed⟩
  · exact same
  · rw [gone, unclaimed.lookup_eq_none exposed]

end Thinned

end World

/-! ### Owning preindexes while files are lost -/

namespace Owning

variable {held : List Possession} {start world : World} {directory : Path} {location : Location}

/-- A name that may be taken does not lead to a file that is owned: the file of the terms of
that preindex would be in the place that is free. -/
theorem not_mem_of_exposes (owning : Owning held start world)
    (exposed : world.Exposes directory location) : location ∉ placesOf held := by
  intro isHeld
  obtain ⟨draw, ⟨first, firstNames, nothing⟩, path, member, names⟩ := exposed
  obtain ⟨possession, isPossession, isThere⟩ := List.mem_flatMap.mp isHeld
  have present := owning.present possession isPossession
  obtain ⟨other, otherMember, otherNames⟩ := present.exists_path location isThere
  obtain ⟨extension, isExtension, rfl⟩ := PreindexFiles.exists_extension member
  obtain ⟨otherExtension, isOther, rfl⟩ := PreindexFiles.exists_extension otherMember
  obtain ⟨sameStem, -⟩ := PreindexFiles.name_injective isExtension isOther
    (names.headD_of_child.symm.trans otherNames.headD_of_child)
  have isFirst : possession.place.words = first := by
    rw [PreindexFiles.beside otherNames present.words, ← sameStem,
      PreindexFiles.beside names firstNames]
  obtain ⟨contents, isFile⟩ := present.is_file _ List.mem_cons_self
  rw [isFirst, nothing] at isFile
  cases isFile

/-- It is a name that could be taken at the start. -/
theorem exposes (owning : Owning held start world) (exposed : world.Exposes directory location) :
    start.Exposes directory location := by
  refine exposed.of_free owning.stems owning.directories fun _ first _ nothing => ?_
  rw [← owning.elsewhere first fun isHeld => ?_, nothing]
  obtain ⟨contents, isFile⟩ := owning.is_file isHeld
  rw [nothing] at isFile
  cases isFile

end Owning

/-- Since the start these preindexes were added, and apart from them files were lost only where
a preindex may be made. -/
def Keeping (directory : Path) (held : List Possession) (start world : World) : Prop :=
  ∃ base, start.Thinned directory base ∧ Owning held base world

/-- One more preindex was added, under a name that the system hands out. -/
def Gaining (directory : Path) (held : List Possession) (start : World) (owned : PreindexFiles)
    (world : World) : Prop :=
  start.Offers directory owned ∧ ∃ place, Keeping directory (⟨owned, place⟩ :: held) start world

namespace Keeping

variable {held others : List Possession} {start world after : World} {directory : Path}
  {location : Location}

theorem of_owning (owning : Owning held start world) : Keeping directory held start world :=
  ⟨start, .refl _ _, owning⟩

/-- Where no name is claimed nothing is lost. -/
theorem owning (keeping : Keeping directory held start world)
    (unclaimed : start.Unclaimed directory) : Owning held start world := by
  obtain ⟨base, thinned, owning⟩ := keeping
  have same := thinned.lookup_eq unclaimed
  exact {
    stems := owning.stems.trans thinned.stems
    directories := thinned.directories.trans owning.directories
    present := owning.present
    fresh := fun location member => by rw [← same location, owning.fresh location member]
    distinct := owning.distinct
    elsewhere := fun location outside => by
      rw [owning.elsewhere location outside, same location] }

/-- Names are handed out as they were at the start. -/
theorem offers (keeping : Keeping directory held start world) (draw : Nat) :
    start.Offers directory (world.preindexNamed directory draw) := by
  obtain ⟨base, thinned, owning⟩ := keeping
  exact ⟨draw, World.preindexNamed_eq (owning.stems.trans thinned.stems)
    (thinned.directories.trans owning.directories) draw⟩

/-- What can be done with possessions can be done while files are lost. -/
theorem imp (keeping : Keeping directory held start world)
    (change : ∀ base, Owning held base world → Owning others base after) :
    Keeping directory others start after := by
  obtain ⟨base, thinned, owning⟩ := keeping
  exact ⟨base, thinned, change base owning⟩

/-- Losing files where a preindex may be made spares the files that are owned. -/
theorem of_thinned (keeping : Keeping directory held start world)
    (thinned : world.Thinned directory after) : Keeping directory held start after := by
  obtain ⟨base, baseThinned, owning⟩ := keeping
  have stays {location : Location} (member : location ∈ placesOf held) :
      after.files.lookup location = world.files.lookup location :=
    (thinned.each location).resolve_right fun gone => owning.not_mem_of_exposes gone.2 member
  have present : ∀ possession ∈ held,
      possession.files.Present possession.place after.files := fun possession isHeld =>
    (owning.present possession isHeld).of_files thinned.directories fun location isThere => by
      rw [stays (List.mem_flatMap.mpr ⟨possession, isHeld, isThere⟩)]
      exact (owning.present possession isHeld).is_file location isThere
  have rebased := Owning.of_present present owning.distinct
  refine ⟨after.without held, baseThinned.trans ⟨thinned.stems.trans owning.stems,
    owning.directories.trans (thinned.directories.trans rebased.directories.symm),
    fun location => ?_⟩, rebased⟩
  rw [World.lookup_without present]
  split
  · rename_i member
    exact .inl (owning.fresh location member).symm
  · rename_i outside
    rw [← owning.elsewhere location outside]
    exact (thinned.each location).imp_right fun gone => ⟨gone.1, owning.exposes gone.2⟩

/-- Apart from what is owned, a file is lost only where a preindex may be made. -/
theorem lookup_or (keeping : Keeping directory held start world)
    (outside : location ∉ placesOf held) :
    world.files.lookup location = start.files.lookup location ∨
      world.files.lookup location = none ∧ start.Exposes directory location := by
  obtain ⟨base, thinned, owning⟩ := keeping
  rw [owning.elsewhere location outside]
  exact thinned.each location

/-- Whoever owns nothing has lost at most files where a preindex may be made. -/
theorem thinned (keeping : Keeping directory [] start world) : start.Thinned directory world := by
  obtain ⟨base, thinned, owning⟩ := keeping
  exact thinned.trans ⟨owning.stems, owning.directories, fun location =>
    .inl (owning.elsewhere location List.not_mem_nil)⟩

/-- What is owned under names that the system hands out is at places that could be taken. -/
theorem exposes_of_mem (keeping : Keeping directory held start world)
    (offered : ∀ possession ∈ held, start.Offers directory possession.files)
    (member : location ∈ placesOf held) : start.Exposes directory location := by
  obtain ⟨base, thinned, owning⟩ := keeping
  obtain ⟨possession, isHeld, isThere⟩ := List.mem_flatMap.mp member
  have isOffered := offered possession isHeld
  have isAt := (owning.present possession isHeld).toAt.of_sameDirectories
    (thinned.directories.trans owning.directories).symm
  refine isOffered.exposes isAt ?_ isThere
  obtain ⟨draw, isNamed⟩ := isOffered
  refine thinned.lookup_words (isNamed ▸ isAt.words) (owning.fresh _ ?_)
  exact List.mem_flatMap.mpr ⟨possession, isHeld, List.mem_cons_self⟩

/-- So every other location is as it was. -/
theorem lookup_eq (keeping : Keeping directory held start world)
    (offered : ∀ possession ∈ held, start.Offers directory possession.files)
    (sheltered : ¬ start.Exposes directory location) :
    world.files.lookup location = start.files.lookup location :=
  (keeping.lookup_or fun member => sheltered (keeping.exposes_of_mem offered member)).resolve_right
    fun gone => sheltered gone.2

end Keeping

end InvertedIndex
