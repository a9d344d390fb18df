/-
This file proves that what was added to the files can be taken away again. An operation that
fails removes the files it had made, each where that is possible, and does not look at the
outcome. When everything that was added lies under the paths that are removed, and nothing
lay there before, the files are in the end what they were at first.
-/

import InvertedIndex.Proofs.PreindexFiles

namespace InvertedIndex

namespace FileSystem

/-! ### Files without a change -/

section

variable {before after : FileSystem}
  (same : ∀ location, after.lookup location = before.lookup location)

include same

theorem walk_congr (start : Location) (steps : List Step) :
    after.walk start steps = before.walk start steps := by
  induction steps generalizing start with
  | nil => rfl
  | cons step rest inductionHypothesis =>
    unfold walk
    rw [same]
    split
    · cases step with
      | up => exact inductionHypothesis _
      | into name =>
        dsimp only
        rw [entry, entry, same]
        split <;> simp_all
    · rfl
    · rfl

end

/-- Where nothing has changed every path reads the same. -/
theorem ChangesOnly.read_eq {before after : FileSystem} (only : ChangesOnly [] before after)
    (path : Path) : after.read path = before.read path := by
  have same (location : Location) : after.lookup location = before.lookup location :=
    only.elsewhere location List.not_mem_nil
  rw [read, read, resolve, resolve, only.directories.origin_eq, walk_congr same]
  congr 1
  cases accept path with
  | error reason => rfl
  | ok accepted =>
    cases before.walk (before.origin path) path.steps with
    | error reason => rfl
    | ok location =>
      simp only [ok_bind, same]

/-! ### Removing -/

section

variable {files after : FileSystem} {path : Path} {location other : Location}

/-- A path names one location at most. -/
theorem Names.unique (first : Names files path location) (second : Names files path other) :
    location = other := by
  have heads := Step.into.inj (Option.some.inj (first.last.symm.trans second.last))
  have tails := Except.ok.inj (first.leads.symm.trans second.leads)
  rw [← first.cons_eq, ← second.cons_eq, heads, tails]

/-- Only a file that a path names is removed. -/
theorem names_of_remove (removed : files.remove path = .ok after) :
    ∃ location contents, Names files path location ∧
      files.lookup location = some (.file contents) ∧ after = files.erase location := by
  obtain ⟨place, placed, rest⟩ := bind_eq_ok.mp removed
  split at rest
  · cases rest
  · rename_i location
    obtain ⟨present, found, erased⟩ := bind_eq_ok.mp rest
    obtain ⟨short, isThere⟩ := short_of_entry found
    split at erased
    · cases erased
    · cases erased
    · rename_i contents
      split at erased
      · cases erased
      · rename_i noSlash
        cases erased
        exact ⟨location, contents, names_of_place placed noSlash short, isThere.symm, rfl⟩

end

end FileSystem

open FileSystem

/-- A preindex has each of its files at one place. -/
theorem PreindexFiles.At.unique {owned : PreindexFiles} {place other : Placement}
    {files : FileSystem} (first : owned.At place files) (second : owned.At other files) :
    place = other := by
  cases place
  cases other
  rw [Placement.mk.injEq]
  exact ⟨first.words.unique second.words, first.counts.unique second.counts,
    first.docs.unique second.docs⟩

namespace World

variable {world : World} {path : Path} {location : Location}

/-- Removing a file changes nothing but the files. -/
theorem removeIfPossible_eq (path : Path) (world : World) :
    ∃ files, world.removeIfPossible path = { world with files } := by
  unfold removeIfPossible
  split
  · exact ⟨_, rfl⟩
  · exact ⟨world.files, rfl⟩

/-- A path that leads to no file cannot be removed. -/
theorem removeIfPossible_of_no_file (nothing : ∀ location contents,
    Names world.files path location → world.files.lookup location ≠ some (.file contents)) :
    world.removeIfPossible path = world := by
  unfold removeIfPossible
  split
  · rename_i removed
    obtain ⟨location, contents, names, isFile, -⟩ := names_of_remove removed
    exact absurd isFile (nothing location contents names)
  · rfl

/-- Once a path was removed nothing is where it leads, and the rest stays as it was. -/
theorem lookup_removeIfPossible (names : Names world.files path location)
    (plain : world.files.lookup location ≠ some .directory) (other : Location) :
    (world.removeIfPossible path).files.lookup other =
      if other = location then none else world.files.lookup other := by
  cases isThere : world.files.lookup location with
  | none =>
    rw [removeIfPossible_of_no_file fun place contents placeNames => by
      rw [← names.unique placeNames, isThere]
      nofun]
    split
    · rename_i same
      rw [same, isThere]
    · rfl
  | some node =>
    cases node with
    | directory => exact absurd isThere plain
    | file contents =>
      rw [removeIfPossible, names.remove_eq isThere]
      exact lookup_erase names.named world.files other

theorem removeIfPossible_sameDirectories (path : Path) (world : World) :
    SameDirectories world.files (world.removeIfPossible path).files := by
  unfold removeIfPossible
  split
  · rename_i removed
    obtain ⟨location, contents, names, isFile, rfl⟩ := names_of_remove removed
    exact .erase_file names.named world.files (plain_of_file isFile)
  · exact .refl _

/-- Removes the files that can be removed. -/
def removeAll (paths : List Path) (world : World) : World :=
  paths.foldl (fun world path => world.removeIfPossible path) world

@[simp] theorem removeAll_cons (path : Path) (rest : List Path) (world : World) :
    world.removeAll (path :: rest) = (world.removeIfPossible path).removeAll rest := rfl

theorem removeAll_eq (paths : List Path) (world : World) :
    ∃ files, world.removeAll paths = { world with files } := by
  induction paths generalizing world with
  | nil => exact ⟨world.files, rfl⟩
  | cons path rest inductionHypothesis =>
    obtain ⟨first, isFirst⟩ := removeIfPossible_eq path world
    obtain ⟨files, isLast⟩ := inductionHypothesis { world with files := first }
    exact ⟨files, by rw [removeAll_cons, isFirst, isLast]⟩

theorem removeAll_sameDirectories (paths : List Path) (world : World) :
    SameDirectories world.files (world.removeAll paths).files := by
  induction paths generalizing world with
  | nil => exact .refl _
  | cons path rest inductionHypothesis =>
    exact (removeIfPossible_sameDirectories path world).trans (inductionHypothesis _)

/-- Each location stays as it was, or a file is gone that the path named. -/
theorem lookup_removeIfPossible_or (path : Path) (world : World) (location : Location) :
    (world.removeIfPossible path).files.lookup location = world.files.lookup location ∨
      (world.removeIfPossible path).files.lookup location = none ∧
        Names world.files path location := by
  unfold removeIfPossible
  split
  · rename_i removed
    obtain ⟨place, contents, names, isFile, rfl⟩ := names_of_remove removed
    by_cases same : location = place
    · subst same
      exact .inr ⟨by simp [names.named], names⟩
    · exact .inl (by simp [names.named, same])
  · exact .inl rfl

/-- So it is with several paths. -/
theorem lookup_removeAll_or (paths : List Path) (world : World) (location : Location) :
    (world.removeAll paths).files.lookup location = world.files.lookup location ∨
      (world.removeAll paths).files.lookup location = none ∧
        ∃ path ∈ paths, Names world.files path location := by
  induction paths generalizing world with
  | nil => exact .inl rfl
  | cons path rest inductionHypothesis =>
    rw [removeAll_cons]
    rcases inductionHypothesis (world.removeIfPossible path) with
      same | ⟨gone, other, member, names⟩
    · rw [same]
      exact (lookup_removeIfPossible_or path world location).imp_right fun gone =>
        ⟨gone.1, path, List.mem_cons_self, gone.2⟩
    · exact .inr ⟨gone, other, List.mem_cons_of_mem _ member,
        names.of_sameDirectories (removeIfPossible_sameDirectories path world).symm⟩

/-- Nothing but a directory is left where one of the paths leads. -/
theorem lookup_removeAll_of_names {paths : List Path} (member : path ∈ paths)
    (names : Names world.files path location)
    (plain : world.files.lookup location ≠ some .directory) :
    (world.removeAll paths).files.lookup location = none := by
  induction paths generalizing world with
  | nil => exact absurd member List.not_mem_nil
  | cons first rest inductionHypothesis =>
    rw [removeAll_cons]
    have same := removeIfPossible_sameDirectories first world
    rcases List.mem_cons.mp member with rfl | member
    · have gone := lookup_removeIfPossible names plain location
      rw [if_pos rfl] at gone
      rcases lookup_removeAll_or rest (world.removeIfPossible path) location with kept | ⟨gone, -⟩
      · rw [kept, gone]
      · exact gone
    · exact inductionHypothesis member (names.of_sameDirectories same)
        fun isDirectory => plain ((same.directories location).mp isDirectory)

/-- Removing the paths under which files were added takes these away, and it cannot take
anything else away but what the paths named before. -/
theorem removeAll_thins {before : FileSystem} {touched : List Location} {paths : List Path}
    {world : World} (only : ChangesOnly touched before world.files)
    (named : ∀ location ∈ touched, ∃ path ∈ paths, Names before path location)
    (location : Location) :
    (world.removeAll paths).files.lookup location = before.lookup location ∨
      (world.removeAll paths).files.lookup location = none ∧
        ∃ path ∈ paths, Names before path location := by
  by_cases isTouched : location ∈ touched
  · obtain ⟨path, member, names⟩ := named location isTouched
    by_cases isDirectory : world.files.lookup location = some .directory
    · left
      rw [((removeAll_sameDirectories paths world).directories location).mpr isDirectory,
        (only.directories.directories location).mp isDirectory]
    · exact .inr ⟨lookup_removeAll_of_names member (names.of_sameDirectories only.directories)
        isDirectory, path, member, names⟩
  · rw [← only.elsewhere location isTouched]
    exact (lookup_removeAll_or paths world location).imp_right fun ⟨gone, path, member, names⟩ =>
      ⟨gone, path, member, names.of_sameDirectories only.directories.symm⟩

/-- So it undoes the change when there was nothing before where the paths lead. -/
theorem removeAll_undoes {before : FileSystem} {touched : List Location} {paths : List Path}
    {world : World} (only : ChangesOnly touched before world.files)
    (named : ∀ location ∈ touched, ∃ path ∈ paths, Names before path location)
    (fresh : ∀ path ∈ paths, ∀ location, Names before path location →
      before.lookup location = none) :
    ChangesOnly [] before (world.removeAll paths).files where
  directories := only.directories.trans (removeAll_sameDirectories paths world)
  elsewhere location _ := by
    rcases removeAll_thins only named location with same | ⟨gone, path, member, names⟩
    · exact same
    · rw [gone, fresh path member location names]

end World

end InvertedIndex
