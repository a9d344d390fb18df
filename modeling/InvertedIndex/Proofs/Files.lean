/-
This file proves what operations on files do at the locations that their paths name. A
path names a location when its steps lead through directories to the one that holds the
location, and then every operation only looks at that one entry. Operations on files add,
replace and remove files and never directories, so a path names the same location
before and after.
-/

import InvertedIndex.Proofs.Checked
import InvertedIndex.FileSystem
import Mathlib.Data.List.Basic

namespace InvertedIndex

namespace FileSystem

/-! ### Entries -/

section

variable {location : Location}

theorem find?_filter_ne (nodes : List (Location × Node)) {other : Location}
    (different : other ≠ location) :
    (nodes.filter fun entry => entry.1 ≠ location).find? (fun entry => entry.1 = other) =
      nodes.find? fun entry => entry.1 = other := by
  rw [List.find?_filter]
  congr 1
  funext entry
  by_cases isOther : entry.1 = other
  · simp [isOther, different]
  · simp [isOther]

/-- Where nothing is there is no directory. -/
theorem plain_of_none {files : FileSystem} (nothing : files.lookup location = none) :
    files.lookup location ≠ some .directory := by
  simp [nothing]

/-- Nor is there one where a file is. -/
theorem plain_of_file {files : FileSystem} {contents : List UInt8}
    (isFile : files.lookup location = some (.file contents)) :
    files.lookup location ≠ some .directory := by
  simp [isFile]

@[simp] theorem lookup_put (named : location ≠ []) (files : FileSystem) (node : Node)
    (other : Location) :
    (files.put location node).lookup other =
      if other = location then some node else files.lookup other := by
  cases other with
  | nil => rw [if_neg (Ne.symm named), lookup, lookup]
  | cons name holder =>
    rw [lookup, put]
    by_cases same : name :: holder = location
    · rw [if_pos same, List.find?_cons_of_pos (by simp [same])]
      rfl
    · rw [if_neg same, List.find?_cons_of_neg (by simpa using Ne.symm same), erase,
        find?_filter_ne files.nodes same]
      rfl

/-- What was put at a location is found there. -/
theorem lookup_put_self (named : location ≠ []) (files : FileSystem) (node : Node) :
    (files.put location node).lookup location = some node := by
  simp [named]

@[simp] theorem lookup_erase (named : location ≠ []) (files : FileSystem) (other : Location) :
    (files.erase location).lookup other =
      if other = location then none else files.lookup other := by
  cases other with
  | nil => rw [if_neg (Ne.symm named), lookup, lookup]
  | cons name holder =>
    rw [lookup, erase]
    by_cases same : name :: holder = location
    · rw [if_pos same, Option.map_eq_none_iff, List.find?_eq_none]
      intro entry member
      simpa [same] using (List.mem_filter.mp member).2
    · rw [if_neg same, find?_filter_ne files.nodes same]
      rfl

@[simp] theorem workingDirectory_foldl_erase (locations : List Location) (files : FileSystem) :
    (locations.foldl erase files).workingDirectory = files.workingDirectory := by
  induction locations generalizing files with
  | nil => rfl
  | cons location rest inductionHypothesis => exact inductionHypothesis (files.erase location)

/-- Once several entries are erased, nothing is at these locations. -/
theorem lookup_foldl_erase {locations : List Location} (named : [] ∉ locations)
    (files : FileSystem) (other : Location) :
    (locations.foldl erase files).lookup other =
      if other ∈ locations then none else files.lookup other := by
  induction locations generalizing files with
  | nil => rfl
  | cons location rest inductionHypothesis =>
    obtain ⟨firstNamed, restNamed⟩ := not_or.mp (mt List.mem_cons.mpr named)
    rw [List.foldl_cons, inductionHypothesis restNamed, lookup_erase (Ne.symm firstNamed)]
    by_cases isRest : other ∈ rest
    · rw [if_pos isRest, if_pos (List.mem_cons_of_mem _ isRest)]
    · rw [if_neg isRest]
      exact if_congr (by rw [List.mem_cons, or_iff_left isRest]) rfl rfl

end

/-! ### Directories stay -/

/-- The same directories are there, seen from the same working directory. -/
structure SameDirectories (before after : FileSystem) : Prop where
  workingDirectory : after.workingDirectory = before.workingDirectory
  directories : ∀ location,
    after.lookup location = some .directory ↔ before.lookup location = some .directory

namespace SameDirectories

variable {before between after : FileSystem}

theorem refl (files : FileSystem) : SameDirectories files files := ⟨rfl, fun _ => Iff.rfl⟩

theorem trans (first : SameDirectories before between) (second : SameDirectories between after) :
    SameDirectories before after where
  workingDirectory := second.workingDirectory.trans first.workingDirectory
  directories location := (second.directories location).trans (first.directories location)

theorem symm (same : SameDirectories before after) : SameDirectories after before where
  workingDirectory := same.workingDirectory.symm
  directories location := (same.directories location).symm

theorem put_file {location : Location} (named : location ≠ []) (files : FileSystem)
    (isFile : files.lookup location ≠ some .directory) (contents : List UInt8) :
    SameDirectories files (files.put location (.file contents)) where
  workingDirectory := rfl
  directories other := by
    rw [lookup_put named]
    split
    · rename_i same
      subst same
      simp [isFile]
    · exact Iff.rfl

theorem erase_file {location : Location} (named : location ≠ []) (files : FileSystem)
    (isFile : files.lookup location ≠ some .directory) :
    SameDirectories files (files.erase location) where
  workingDirectory := rfl
  directories other := by
    rw [lookup_erase named]
    split
    · rename_i same
      subst same
      simp [isFile]
    · exact Iff.rfl

theorem origin_eq (same : SameDirectories before after) (path : Path) :
    after.origin path = before.origin path := by
  rw [origin, origin, same.workingDirectory]

end SameDirectories

/-! ### Changes at some locations -/

/-- Files were added, replaced and removed at these locations and nowhere else. -/
structure ChangesOnly (touched : List Location) (before after : FileSystem) : Prop where
  directories : SameDirectories before after
  elsewhere : ∀ location, location ∉ touched → after.lookup location = before.lookup location

namespace ChangesOnly

variable {touched more : List Location} {before between after : FileSystem}

theorem trans (first : ChangesOnly touched before between)
    (second : ChangesOnly more between after) : ChangesOnly (touched ++ more) before after where
  directories := first.directories.trans second.directories
  elsewhere location untouched := by
    rw [List.mem_append, not_or] at untouched
    rw [second.elsewhere location untouched.2, first.elsewhere location untouched.1]

theorem refl (files : FileSystem) : ChangesOnly [] files files := ⟨.refl _, fun _ _ => rfl⟩

/-- Two changes at the same locations are one. -/
theorem again (first : ChangesOnly touched before between)
    (second : ChangesOnly touched between after) : ChangesOnly touched before after where
  directories := first.directories.trans second.directories
  elsewhere location untouched := by
    rw [second.elsewhere location untouched, first.elsewhere location untouched]

theorem weaken (only : ChangesOnly touched before after)
    (within : ∀ location ∈ touched, location ∈ more) : ChangesOnly more before after where
  directories := only.directories
  elsewhere location untouched :=
    only.elsewhere location fun member => untouched (within location member)

theorem put_file {location : Location} (named : location ≠ []) (files : FileSystem)
    (isFile : files.lookup location ≠ some .directory) (contents : List UInt8) :
    ChangesOnly [location] files (files.put location (.file contents)) where
  directories := .put_file named files isFile contents
  elsewhere other untouched := by
    rw [lookup_put named, if_neg fun same => untouched (List.mem_singleton.mpr same)]

theorem erase_file {location : Location} (named : location ≠ []) (files : FileSystem)
    (isFile : files.lookup location ≠ some .directory) :
    ChangesOnly [location] files (files.erase location) where
  directories := .erase_file named files isFile
  elsewhere other untouched := by
    rw [lookup_erase named, if_neg fun same => untouched (List.mem_singleton.mpr same)]

end ChangesOnly

/-! ### Walking -/

/-- A walk that arrives at a directory starts from one. -/
theorem lookup_start_of_walk {files : FileSystem} {start arrived : Location} {steps : List Step}
    (walked : files.walk start steps = .ok arrived)
    (isDirectory : files.lookup arrived = some .directory) :
    files.lookup start = some .directory := by
  cases steps with
  | nil =>
    rw [walk] at walked
    cases walked
    exact isDirectory
  | cons step rest =>
    unfold walk at walked
    split at walked
    · assumption
    · cases walked
    · cases walked

theorem walk_up {files : FileSystem} {start : Location} (rest : List Step)
    (isDirectory : files.lookup start = some .directory) :
    files.walk start (.up :: rest) = files.walk start.tail rest := by
  conv => left; unfold walk
  rw [isDirectory]

theorem walk_into {files : FileSystem} {start : Location} (name : String) (rest : List Step)
    (isDirectory : files.lookup start = some .directory) :
    files.walk start (.into name :: rest) = match files.entry (name :: start) with
      | .error reason => .error reason
      | .ok none => .error .notFound
      | .ok (some _) => files.walk (name :: start) rest := by
  rcases isEntry : files.entry (name :: start) with reason | _ | node
  all_goals
    rw [walk, isDirectory]
    dsimp only
    rw [isEntry]

/-- A walk to a directory goes the same way wherever the directories are the same. -/
theorem walk_of_sameDirectories {before after : FileSystem} (same : SameDirectories before after)
    {start arrived : Location} {steps : List Step} (walked : before.walk start steps = .ok arrived)
    (isDirectory : before.lookup arrived = some .directory) :
    after.walk start steps = .ok arrived := by
  induction steps generalizing start with
  | nil => exact walked
  | cons step rest inductionHypothesis =>
    have startIs := lookup_start_of_walk walked isDirectory
    have startStays := (same.directories start).mpr startIs
    cases step with
    | up =>
      rw [walk_up rest startIs] at walked
      rw [walk_up rest startStays]
      exact inductionHypothesis walked
    | into name =>
      rw [walk_into name rest startIs] at walked
      rw [walk_into name rest startStays]
      split at walked
      · cases walked
      · cases walked
      · rename_i node present
        have nextStays := (same.directories _).mpr (lookup_start_of_walk walked isDirectory)
        rw [entry] at present ⊢
        split at present
        · cases present
        · rename_i short
          rw [if_neg short, nextStays]
          exact inductionHypothesis walked

/-- The last step of a walk. -/
theorem walk_append_into (files : FileSystem) (start : Location) (steps : List Step)
    (name : String) :
    files.walk start (steps ++ [.into name]) =
      files.walk start steps >>= fun holder => files.walk holder [.into name] := by
  induction steps generalizing start with
  | nil => rfl
  | cons step rest inductionHypothesis =>
    rw [List.cons_append]
    cases isThere : files.lookup start with
    | none =>
      conv => left; unfold walk
      conv => right; left; unfold walk
      rw [isThere]
      rfl
    | some node =>
      cases node with
      | file contents =>
        conv => left; unfold walk
        conv => right; left; unfold walk
        rw [isThere]
        rfl
      | directory =>
        cases step with
        | up =>
          rw [walk_up _ isThere, walk_up _ isThere]
          exact inductionHypothesis _
        | into other =>
          rw [walk_into _ _ isThere, walk_into _ _ isThere]
          cases files.entry (other :: start) with
          | error reason => rfl
          | ok present =>
            cases present with
            | none => rfl
            | some node => exact inductionHypothesis _

/-! ### What a path names -/

/-- A path names something when it can be read. -/
theorem exists?_eq (files : FileSystem) (path : Path) :
    files.exists? path = (files.read path).isOk := by
  rw [exists?, read]
  cases files.resolve path <;> rfl

/-- The steps of a path lead to the directory that holds a location, and the last one goes
from there to the location. -/
structure Names (files : FileSystem) (path : Path) (location : Location) : Prop where
  accepted : accept path = .ok ()
  ending : path.ending = .name
  last : path.steps.getLast? = some (.into (location.headD ""))
  named : location ≠ []
  leads : files.walk (files.origin path) path.steps.dropLast = .ok location.tail
  holder : files.lookup location.tail = some .directory
  short : ¬ nameLimit < (location.headD "").utf8ByteSize

namespace Names

variable {files : FileSystem} {path : Path} {location : Location}

theorem cons_eq (names : Names files path location) :
    location.headD "" :: location.tail = location := by
  obtain ⟨name, holder, rfl⟩ := List.exists_cons_of_ne_nil names.named
  rfl

/-- The last name of a path is the name of the entry. -/
theorem headD_of_child {directory : Path} {name : String}
    (names : Names files (directory.child name) location) : location.headD "" = name := by
  have last := names.last
  rw [Path.child, List.getLast?_concat] at last
  exact (Step.into.inj (Option.some.inj last)).symm

/-- A path names the same location wherever the directories are the same. -/
theorem of_sameDirectories {after : FileSystem} (same : SameDirectories files after)
    (names : Names files path location) : Names after path location where
  accepted := names.accepted
  ending := names.ending
  last := names.last
  named := names.named
  leads := by
    rw [same.origin_eq]
    exact walk_of_sameDirectories same names.leads names.holder
  holder := (same.directories _).mpr names.holder
  short := names.short

theorem entry_eq (names : Names files path location) :
    files.entry location = .ok (files.lookup location) := if_neg names.short

theorem place_eq (names : Names files path location) :
    files.place path = .ok (some location) := by
  rw [place, names.accepted, ok_bind, names.last, names.ending]
  dsimp only
  rw [names.leads, ok_bind, names.holder]
  dsimp only
  rw [names.cons_eq]

/-- Reading through a path gives the node at the location. -/
theorem read_eq (names : Names files path location) :
    files.read path = match files.lookup location with
      | some node => .ok node
      | none => .error .notFound := by
  have steps : path.steps = path.steps.dropLast ++ [.into (location.headD "")] :=
    (List.dropLast_append_getLast? _ names.last).symm
  have walked : files.walk (files.origin path) path.steps = match files.lookup location with
      | some _ => .ok location
      | none => .error .notFound := by
    rw [steps, walk_append_into, names.leads, ok_bind, walk_into _ _ names.holder, names.cons_eq,
      names.entry_eq]
    cases files.lookup location <;> rfl
  rw [read, resolve, names.accepted, ok_bind, walked]
  cases isThere : files.lookup location with
  | none => rfl
  | some node =>
    dsimp only
    rw [ok_bind, isThere]
    cases node with
    | directory => rfl
    | file contents =>
      dsimp only
      rw [if_pos names.ending]
      rfl

theorem read_of_lookup (names : Names files path location) {node : Node}
    (isThere : files.lookup location = some node) : files.read path = .ok node := by
  rw [names.read_eq, isThere]

/-- What is read through a path is at its location. -/
theorem lookup_of_read (names : Names files path location) {node : Node}
    (found : files.read path = .ok node) : files.lookup location = some node := by
  rw [names.read_eq] at found
  split at found
  · rename_i isThere
    cases found
    exact isThere
  · cases found

theorem exists_of_lookup (names : Names files path location) {node : Node}
    (isThere : files.lookup location = some node) : files.exists? path = true := by
  rw [exists?_eq, names.read_of_lookup isThere]
  rfl

theorem createNew_eq (names : Names files path location) (contents : List UInt8) :
    files.createNew path contents =
      if (files.lookup location).isSome then .error .alreadyExists
      else .ok (files.put location (.file contents)) := by
  rw [createNew, names.place_eq, ok_bind]
  dsimp only
  rw [names.ending, if_neg nofun, names.entry_eq, ok_bind]

theorem write_eq (names : Names files path location)
    (isFile : files.lookup location ≠ some .directory) (contents : List UInt8) :
    files.write path contents = .ok (files.put location (.file contents)) := by
  rw [write, names.place_eq, ok_bind]
  dsimp only
  rw [names.ending, if_neg nofun, names.entry_eq, ok_bind, if_neg isFile]

theorem remove_eq (names : Names files path location) {contents : List UInt8}
    (isFile : files.lookup location = some (.file contents)) :
    files.remove path = .ok (files.erase location) := by
  rw [remove, names.place_eq, ok_bind]
  dsimp only
  rw [names.entry_eq, ok_bind, isFile]
  dsimp only
  rw [names.ending, if_neg nofun]

/-- Moving a file takes it from its location to the other one, over what was there. -/
theorem rename_eq {target : Path} {second : Location} (names : Names files path location)
    (targetNames : Names files target second) {contents : List UInt8}
    (isFile : files.lookup location = some (.file contents)) (different : location ≠ second)
    (free : files.lookup second ≠ some .directory) :
    files.rename path target = .ok ((files.erase location).put second (.file contents)) := by
  have noNul : target.holdsNul ≠ true := by
    intro holds
    have accepted := targetNames.accepted
    rw [accept, if_pos holds] at accepted
    cases accepted
  rw [rename, if_neg noNul, names.place_eq, ok_bind, targetNames.place_eq, ok_bind]
  dsimp only
  rw [names.entry_eq, ok_bind, isFile]
  dsimp only
  rw [targetNames.entry_eq, ok_bind, names.ending, targetNames.ending, if_neg (by simp),
    if_neg free, if_neg different]

end Names

/-! ### What a success says -/

section

variable {files after : FileSystem} {path : Path} {location : Location} {contents : List UInt8}

theorem names_of_place (placed : files.place path = .ok (some location))
    (noSlash : path.ending ≠ .slash) (short : ¬ nameLimit < (location.headD "").utf8ByteSize) :
    Names files path location := by
  obtain ⟨_, accepted, rest⟩ := bind_eq_ok.mp placed
  split at rest
  · rename_i name last ending
    obtain ⟨holder, leads, found⟩ := bind_eq_ok.mp rest
    split at found
    · rename_i isDirectory
      cases found
      exact ⟨accepted, ending, last, List.cons_ne_nil _ _, leads, isDirectory, short⟩
    · cases found
    · cases found
  · rename_i isSlash
    exact absurd isSlash noSlash
  · obtain ⟨_, _, nothing⟩ := bind_eq_ok.mp rest
    cases nothing

theorem short_of_entry {present : Option Node} (found : files.entry location = .ok present) :
    ¬ nameLimit < (location.headD "").utf8ByteSize ∧ present = files.lookup location := by
  rw [entry] at found
  split at found
  · cases found
  · rename_i short
    cases found
    exact ⟨short, rfl⟩

/-- Only a location that holds nothing is created. -/
theorem names_of_createNew (created : files.createNew path contents = .ok after) :
    ∃ location, Names files path location ∧ files.lookup location = none ∧
      after = files.put location (.file contents) := by
  obtain ⟨place, placed, rest⟩ := bind_eq_ok.mp created
  split at rest
  · cases rest
  · rename_i location
    split at rest
    · cases rest
    · rename_i noSlash
      obtain ⟨present, found, put⟩ := bind_eq_ok.mp rest
      obtain ⟨short, rfl⟩ := short_of_entry found
      split at put
      · cases put
      · rename_i absent
        cases put
        exact ⟨location, names_of_place placed noSlash short,
          Option.not_isSome_iff_eq_none.mp absent, rfl⟩

/-- A file is written only where no directory is, and there it is read. -/
theorem read_of_write (written : files.write path contents = .ok after) :
    after.read path = .ok (.file contents) := by
  obtain ⟨place, placed, rest⟩ := bind_eq_ok.mp written
  split at rest
  · cases rest
  · rename_i location
    split at rest
    · cases rest
    · rename_i noSlash
      obtain ⟨present, found, put⟩ := bind_eq_ok.mp rest
      obtain ⟨short, rfl⟩ := short_of_entry found
      split at put
      · cases put
      · rename_i noDirectory
        cases put
        have names := names_of_place placed noSlash short
        rw [(names.of_sameDirectories (.put_file names.named files noDirectory contents)).read_eq,
          lookup_put_self names.named]

/-- A file is moved only to a location that holds no directory. -/
theorem names_of_rename {source target : Path} (names : Names files source location)
    (isFile : files.lookup location = some (.file contents))
    (moved : files.rename source target = .ok after) :
    ∃ second, Names files target second ∧ files.lookup second ≠ some .directory := by
  rw [rename] at moved
  split at moved
  · cases moved
  · rw [names.place_eq, ok_bind] at moved
    obtain ⟨place, placed, rest⟩ := bind_eq_ok.mp moved
    cases place with
    | none => cases rest
    | some second =>
      dsimp only at rest
      rw [names.entry_eq, ok_bind, isFile] at rest
      obtain ⟨present, found, installed⟩ := bind_eq_ok.mp rest
      obtain ⟨short, rfl⟩ := short_of_entry found
      split at installed
      · cases installed
      · rename_i noSlash
        split at installed
        · cases installed
        · rename_i free
          exact ⟨second, names_of_place placed (not_or.mp noSlash).2 short, free⟩

/-- A walk that goes down at last goes from a directory to an entry of it. -/
theorem holder_of_walk {start : Location} {steps : List Step} {name : String}
    (walked : files.walk start (steps ++ [.into name]) = .ok location) :
    ∃ holder, files.walk start steps = .ok holder ∧ files.lookup holder = some .directory ∧
      location = name :: holder ∧ ¬ nameLimit < name.utf8ByteSize := by
  rw [walk_append_into] at walked
  obtain ⟨holder, leads, lastStep⟩ := bind_eq_ok.mp walked
  refine ⟨holder, leads, ?_⟩
  have isDirectory : files.lookup holder = some .directory := by
    unfold walk at lastStep
    split at lastStep
    · assumption
    · cases lastStep
    · cases lastStep
  rw [walk_into name [] isDirectory] at lastStep
  split at lastStep
  · cases lastStep
  · cases lastStep
  · rename_i found
    cases lastStep
    exact ⟨isDirectory, rfl, (short_of_entry found).1⟩

/-- A path that ends in a name is read as a file only where it names one. -/
theorem names_of_read (last_of_ending : path.ending = .name →
    ∃ name, path.steps.getLast? = some (.into name))
    (isFile : files.read path = .ok (.file contents)) :
    ∃ location, Names files path location ∧ files.lookup location = some (.file contents) := by
  rw [read] at isFile
  cases resolved : files.resolve path with
  | error reason =>
    rw [resolved] at isFile
    cases isFile
  | ok found =>
    rw [resolved] at isFile
    obtain ⟨_, accepted, rest⟩ := bind_eq_ok.mp resolved
    obtain ⟨location, walked, isFound⟩ := bind_eq_ok.mp rest
    split at isFound
    · cases isFound
    · cases isFound
      cases isFile
    · rename_i isThere
      split at isFound
      · rename_i ending
        cases isFound
        cases isFile
        obtain ⟨name, last⟩ := last_of_ending ending
        rw [← List.dropLast_append_getLast? _ last] at walked
        obtain ⟨holder, leads, isDirectory, rfl, short⟩ := holder_of_walk walked
        exact ⟨name :: holder, ⟨accepted, ending, last, List.cons_ne_nil _ _, leads, isDirectory,
          short⟩, isThere⟩
      · cases isFound

/-- The place of an entry is where the walk along all steps ends, if the entry exists. -/
theorem walk_of_place (placed : files.place path = .ok (some location))
    (absent : files.entry location = .ok none) :
    files.walk (files.origin path) path.steps = .error .notFound := by
  have arrived {name : String} {holder : Location} (last : path.steps.getLast? = some (.into name))
      (leads : files.walk (files.origin path) path.steps.dropLast = .ok holder)
      (isDirectory : files.lookup holder = some .directory) (isPlace : name :: holder = location) :
      files.walk (files.origin path) path.steps = .error .notFound := by
    rw [← List.dropLast_append_getLast? _ last, walk_append_into, leads, ok_bind,
      walk_into _ _ isDirectory, isPlace, absent]
  obtain ⟨_, -, rest⟩ := bind_eq_ok.mp placed
  split at rest
  · rename_i name last _
    obtain ⟨holder, leads, found⟩ := bind_eq_ok.mp rest
    split at found
    · rename_i isDirectory
      cases found
      exact arrived last leads isDirectory rfl
    · cases found
    · cases found
  · rename_i name last _
    obtain ⟨holder, leads, found⟩ := bind_eq_ok.mp rest
    split at found
    · rename_i isDirectory
      cases found
      exact arrived last leads isDirectory rfl
    · cases found
    · cases found
  · obtain ⟨_, _, nothing⟩ := bind_eq_ok.mp rest
    cases nothing

/-- Creating a directory that is there already changes nothing. -/
theorem makeDirectories_of_isDirectory (isDirectory : files.isDirectory path = true) :
    files.makeDirectories path = (.ok (), files) := by
  have ensured : files.ensureDirectory path = (.ok (), files) := by
    rw [ensureDirectory]
    cases made : files.makeDirectory path with
    | error reason =>
      dsimp only
      rw [if_pos isDirectory]
    | ok changed =>
      obtain ⟨place, placed, rest⟩ := bind_eq_ok.mp made
      split at rest
      · cases rest
      · obtain ⟨present, found, put⟩ := bind_eq_ok.mp rest
        split at put
        · cases put
        · rename_i absent
          rw [Option.not_isSome_iff_eq_none.mp absent] at found
          rw [FileSystem.isDirectory, read, resolve, walk_of_place placed found] at isDirectory
          cases accepted : accept path with
          | error reason =>
            rw [accepted] at isDirectory
            cases isDirectory
          | ok _ =>
            rw [accepted] at isDirectory
            cases isDirectory
  rw [makeDirectories, ensured]
  split <;> rfl

end

end FileSystem

end InvertedIndex
