/-
This file proves what becomes of a request to create, to write or to move a file. The system
may refuse any of them. One that is refused leaves the files as they are, apart from a file
that was being written, which holds the front of what was to be written. It does not refuse
them when it is willing and the names that it hands out are good ones. For each kind of request
one lemma says how it settles, one says why it fails and one says what it keeps when it fails.
-/

import InvertedIndex.Proofs.Actions
import InvertedIndex.Proofs.Files

namespace InvertedIndex

open FileSystem

/-! ### The system -/

namespace World

/-- The second world is a later state of the same system: it hands out the same names, it
refuses the same requests, and the requests that have been made stay made. -/
structure Precedes (before after : World) : Prop where
  stems : after.stems = before.stems
  refusals : after.refusals = before.refusals
  requests : before.requests ≤ after.requests

/-- The system grants the next request. -/
def Grants (world : World) : Prop := world.refusals world.requests = none

/-- The system refuses no request from now on. -/
def Willing (world : World) : Prop :=
  ∀ request, world.requests ≤ request → world.refusals request = none

variable {world before between after : World}

theorem Precedes.refl (world : World) : world.Precedes world := ⟨rfl, rfl, Nat.le_refl _⟩

theorem Precedes.trans (first : before.Precedes between) (second : between.Precedes after) :
    before.Precedes after :=
  ⟨second.stems.trans first.stems, second.refusals.trans first.refusals,
    Nat.le_trans first.requests second.requests⟩

theorem Willing.grants (willing : world.Willing) : world.Grants :=
  willing world.requests (Nat.le_refl _)

theorem Willing.of_precedes (willing : before.Willing) (precedes : before.Precedes after) :
    after.Willing := by
  intro request made
  rw [precedes.refusals]
  exact willing request (Nat.le_trans precedes.requests made)

@[simp] theorem requested_files (world : World) : world.requested.files = world.files := rfl

@[simp] theorem requested_stems (world : World) : world.requested.stems = world.stems := rfl

@[simp] theorem requested_refusals (world : World) :
    world.requested.refusals = world.refusals := rfl

@[simp] theorem requested_requests (world : World) :
    world.requested.requests = world.requests + 1 := rfl

/-- A request and what it changes do not change its mind. -/
theorem Willing.requested (willing : world.Willing) (files : FileSystem) :
    ({ world.requested with files } : World).Willing :=
  willing.of_precedes ⟨by simp, by simp, by simp⟩

end World

/-! ### Names for new files -/

/-- A file can be created under this path. -/
def FileSystem.Free (files : FileSystem) (path : Path) : Prop :=
  ∃ location, Names files path location ∧ files.lookup location = none

theorem FileSystem.Free.put_file {files : FileSystem} {path : Path} {location : Location}
    {contents : List UInt8} (free : files.Free path) (named : location ≠ [])
    (isFile : files.lookup location ≠ some .directory)
    (apart : ∀ other, Names files path other → other ≠ location) :
    (files.put location (.file contents)).Free path := by
  obtain ⟨other, names, nothing⟩ := free
  refine ⟨other, names.of_sameDirectories (.put_file named files isFile contents), ?_⟩
  rw [lookup_put named, if_neg (apart other names), nothing]

theorem FileSystem.free_of_createNew {files : FileSystem} {path : Path}
    (created : (files.createNew path []).isOk = true) : files.Free path := by
  cases isCreated : files.createNew path [] with
  | ok after =>
    obtain ⟨location, names, nothing, -⟩ := names_of_createNew isCreated
    exact ⟨location, names, nothing⟩
  | error reason =>
    rw [isCreated] at created
    cases created

/-- The system is willing, and the next names that it hands out are good ones: a file can be
created under every path that is made from one of them, and different names make paths to
different locations. -/
structure Supplied (paths : String → List Path) (draws : Nat) (world : World) : Prop where
  willing : world.Willing
  free : ∀ draw, draw < draws → ∀ path ∈ paths (world.stems (world.drawn + draw)),
    world.files.Free path
  apart : ∀ first second, first < draws → second < draws → first ≠ second →
    ∀ path ∈ paths (world.stems (world.drawn + first)),
    ∀ other ∈ paths (world.stems (world.drawn + second)),
    ∀ location, Names world.files path location → ¬ Names world.files other location

theorem Supplied.of_le {paths : String → List Path} {draws fewer : Nat} {world : World}
    (supplied : Supplied paths draws world) (less : fewer ≤ draws) :
    Supplied paths fewer world where
  willing := supplied.willing
  free draw below := supplied.free draw (Nat.lt_of_lt_of_le below less)
  apart first second firstBelow secondBelow := supplied.apart first second
    (Nat.lt_of_lt_of_le firstBelow less) (Nat.lt_of_lt_of_le secondBelow less)

/-- An operation that draws no names leaves the supply as it was, when it adds nothing at a
location that was free. -/
theorem Supplied.of_changesOnly {paths : String → List Path} {draws : Nat} {before after : World}
    {touched : List Location} (supplied : Supplied paths draws before)
    (precedes : before.Precedes after) (drawn : after.drawn = before.drawn)
    (only : ChangesOnly touched before.files after.files)
    (taken : ∀ location ∈ touched, before.files.lookup location = none →
      after.files.lookup location = none) : Supplied paths draws after where
  willing := supplied.willing.of_precedes precedes
  free draw below path member := by
    rw [precedes.stems, drawn] at member
    obtain ⟨location, names, nothing⟩ := supplied.free draw below path member
    refine ⟨location, names.of_sameDirectories only.directories, ?_⟩
    by_cases isTouched : location ∈ touched
    · exact taken location isTouched nothing
    · rw [only.elsewhere location isTouched, nothing]
  apart first second firstBelow secondBelow different path member other otherMember location
      names otherNames := by
    rw [precedes.stems, drawn] at member otherMember
    exact supplied.apart first second firstBelow secondBelow different path member other otherMember
      location (names.of_sameDirectories only.directories.symm)
      (otherNames.of_sameDirectories only.directories.symm)

/-- Once a name was drawn and used, the supply holds the names after it. -/
theorem Supplied.of_drawn {paths : String → List Path} {draws : Nat} {before after : World}
    {touched : List Location} (supplied : Supplied paths (draws + 1) before)
    (precedes : before.Precedes after) (drawn : after.drawn = before.drawn + 1)
    (only : ChangesOnly touched before.files after.files)
    (named : ∀ location ∈ touched, ∃ path ∈ paths (before.stems before.drawn),
      Names before.files path location) : Supplied paths draws after where
  willing := supplied.willing.of_precedes precedes
  free draw below path member := by
    rw [precedes.stems, drawn, Nat.add_assoc, Nat.add_comm 1] at member
    obtain ⟨location, names, nothing⟩ := supplied.free (draw + 1) (by omega) path member
    refine ⟨location, names.of_sameDirectories only.directories, ?_⟩
    rw [only.elsewhere location fun isTouched => ?_, nothing]
    obtain ⟨other, otherMember, otherNames⟩ := named location isTouched
    exact supplied.apart 0 (draw + 1) (by omega) (by omega) (by omega) other otherMember path member
      location otherNames names
  apart first second firstBelow secondBelow different path member other otherMember location
      names otherNames := by
    rw [precedes.stems, drawn, Nat.add_assoc, Nat.add_comm 1] at member otherMember
    exact supplied.apart (first + 1) (second + 1) (by omega) (by omega) (by omega) path member
      other otherMember location (names.of_sameDirectories only.directories.symm)
      (otherNames.of_sameDirectories only.directories.symm)

/-! ### Requests -/

/-- The system refused an operation on files, which it does not do when the way is clear. -/
def Refused (clear : Prop) (failure : Failure FileError) (_ : World) : Prop :=
  ¬ clear ∧ ∃ reason, failure = .error reason

/-- The storage layer failed because the system refused an operation on files. -/
def Hindered (clear : Prop) (failure : Failure StorageError) (_ : World) : Prop :=
  ¬ clear ∧ ∃ reason, failure = .error (.files reason)

namespace Action

variable {ε α : Type} {clear : Prop} {path other : Path} {location : Location} {world : World}

/-- An operation on files as a part of the storage layer. -/
theorem Ends.lift {action : Action FileError α} {expected : Failure FileError → World → Prop}
    {seen : Failure StorageError → World → Prop} {good : α → World → Prop}
    (ends : action.Ends world expected good)
    (sees : ∀ failure after, expected failure after → seen (failure.map .files) after) :
    (liftM action : Action StorageError α).Ends world seen good := ends.mapError sees

theorem Ends.lift_refused {action : Action FileError α} {good : α → World → Prop}
    (ends : action.Ends world (Refused clear) good) :
    (liftM action : Action StorageError α).Ends world (Hindered clear) good := by
  refine ends.lift fun failure after refused => ?_
  obtain ⟨hindered, reason, rfl⟩ := refused
  exact ⟨hindered, reason, rfl⟩

/-- What follows a request goes on from the world in which it was made, with the answer of the
system. -/
theorem Ends.request_bind {next : Option Refusal → Action ε α}
    {expected : Failure ε → World → Prop} {good : α → World → Prop}
    (ends : (next (world.refusals world.requests)).Ends world.requested expected good) :
    (request >>= next).Ends world expected good :=
  bind (show (request : Action ε (Option Refusal)).Ends world expected fun answer after =>
        answer = world.refusals world.requests ∧ after = world.requested from
      of_value rfl ⟨rfl, rfl⟩)
    fun _ _ same => same.1 ▸ same.2 ▸ ends

/-- A change that was asked for is made, or else the files stay as they are: the files do not
allow it, or the system refuses it. -/
theorem requestChange_ends (operation : FileSystem → Except FileError FileSystem)
    (grants : clear → world.Grants) (allowed : clear → (operation world.files).isOk = true) :
    (requestChange operation).Ends world
      (fun failure after => Refused clear failure after ∧ after = world.requested)
      fun _ after => ∃ files, operation world.files = .ok files ∧
        after = { world.requested with files } := by
  refine Ends.request_bind ?_
  cases answer : world.refusals world.requests with
  | some refusal =>
    refine .of_failure rfl ⟨⟨fun isClear => ?_, refusal.reason, rfl⟩, rfl⟩
    rw [grants isClear] at answer
    cases answer
  | none =>
    dsimp only
    cases changed : operation world.files with
    | ok files =>
      have performed : (change operation).perform world.requested =
          (.ok (), { world.requested with files }) := by
        rw [perform, change, World.requested_files, changed]
      exact .of_value performed ⟨files, rfl, rfl⟩
    | error reason =>
      have performed : (change operation).perform world.requested =
          (.error (.error reason), world.requested) := by
        rw [perform, change, World.requested_files, changed]
      refine .of_failure performed ⟨⟨fun isClear => ?_, reason, rfl⟩, rfl⟩
      have isOk := allowed isClear
      rw [changed] at isOk
      cases isOk

/-- A file is created where nothing was. -/
theorem createNew_settles (grants : clear → world.Grants)
    (usable : clear → world.files.Free path) :
    (createNew path).Ends world
      (fun failure after => Refused clear failure after ∧ after = world.requested)
      fun _ after => ∃ location, Names world.files path location ∧
        world.files.lookup location = none ∧
        after = { world.requested with files := world.files.put location (.file []) } := by
  refine (requestChange_ends _ grants fun isClear => ?_).weaken ?_
  · obtain ⟨location, names, nothing⟩ := usable isClear
    rw [names.createNew_eq, nothing]
    rfl
  · rintro _ _ ⟨files, created, rfl⟩
    obtain ⟨location, names, nothing, rfl⟩ := names_of_createNew created
    exact ⟨location, names, nothing, rfl⟩

theorem createNew_ends (grants : clear → world.Grants)
    (usable : clear → world.files.Free path) :
    (createNew path).Ends world (Refused clear) fun _ after =>
      ∃ location, Names world.files path location ∧ world.files.lookup location = none ∧
        after = { world.requested with files := world.files.put location (.file []) } :=
  (createNew_settles grants usable).weaken_failure fun _ _ refused => refused.1

/-- Whether or not the way is clear, a creation that fails changes nothing. -/
theorem createNew_keeps (path : Path) (world : World) :
    (createNew path).Ends world (fun _ after => after = world.requested) fun _ after =>
      ∃ location, Names world.files path location ∧ world.files.lookup location = none ∧
        after = { world.requested with files := world.files.put location (.file []) } :=
  (createNew_settles (fun impossible : False => impossible.elim)
    fun impossible => impossible.elim).weaken_failure fun _ _ refused => refused.2

/-- Two files that cannot be the same one are created one after the other. -/
theorem createBoth_ends (world : World) (willing : clear → world.Willing)
    (usable : clear → world.files.Free path) (otherUsable : clear → world.files.Free other)
    (apart : ∀ location elsewhere, Names world.files path location →
      Names world.files other elsewhere → elsewhere ≠ location) :
    (createNew path >>= fun _ => createNew other).Ends world (Refused clear)
      fun _ after => ∃ location elsewhere, Names world.files path location ∧
        world.files.lookup location = none ∧ Names world.files other elsewhere ∧
        world.files.lookup elsewhere = none ∧
        after = { world.requested.requested with
          files := (world.files.put location (.file [])).put elsewhere (.file []) } := by
  refine (createNew_ends (fun isClear => (willing isClear).grants) usable).bind ?_
  rintro _ _ ⟨location, names, nothing, rfl⟩
  have isFile : world.files.lookup location ≠ some .directory :=
    plain_of_none nothing
  have same := SameDirectories.put_file names.named world.files isFile []
  have grants isClear := ((willing isClear).requested (world.files.put location (.file []))).grants
  refine Ends.weaken (createNew_ends grants fun isClear =>
    (otherUsable isClear).put_file names.named isFile
      fun elsewhere otherNames => apart _ _ names otherNames) ?_
  rintro _ _ ⟨elsewhere, otherNames, otherNothing, rfl⟩
  have otherNames' := otherNames.of_sameDirectories same.symm
  rw [lookup_put names.named, if_neg (apart _ _ names otherNames')] at otherNothing
  exact ⟨location, elsewhere, names, nothing, otherNames', otherNothing, rfl⟩

/-- A file is written over one that is there, or where nothing is. What the system refuses to
write on is there as far as it was written. -/
theorem write_settles (grants : clear → world.Grants) (names : Names world.files path location)
    (isFile : world.files.lookup location ≠ some .directory) (contents : List UInt8) :
    (write path contents).Ends world
      (fun failure after => Refused clear failure after ∧ ∃ front, front <+: contents ∧
        after = { world.requested with files := world.files.put location (.file front) })
      fun _ after => after =
        { world.requested with files := world.files.put location (.file contents) } := by
  have performed (part : List UInt8) :
      (change fun files => files.write path part).perform world.requested =
        (.ok (), { world.requested with files := world.files.put location (.file part) }) := by
    rw [perform, change, World.requested_files, names.write_eq isFile]
  refine Ends.request_bind ?_
  cases answer : world.refusals world.requests with
  | none => exact .of_value (performed contents) rfl
  | some refusal =>
    refine Ends.bind (show (change _).Ends _ _ fun _ after => after = { world.requested with
      files := world.files.put location (.file (contents.take refusal.written)) } from
        .of_value (performed _) rfl) ?_
    rintro _ _ rfl
    refine .of_failure rfl ⟨⟨fun isClear => ?_, refusal.reason, rfl⟩, _, List.take_prefix _ _, rfl⟩
    rw [grants isClear] at answer
    cases answer

theorem write_ends (grants : clear → world.Grants) (names : Names world.files path location)
    (isFile : world.files.lookup location ≠ some .directory) (contents : List UInt8) :
    (write path contents).Ends world (Refused clear) fun _ after => after =
      { world.requested with files := world.files.put location (.file contents) } :=
  (write_settles grants names isFile contents).weaken_failure fun _ _ refused => refused.1

/-- However a write ends, the front of what was to be written is there at least. -/
theorem write_keeps (names : Names world.files path location)
    (isFile : world.files.lookup location ≠ some .directory) (contents : List UInt8) :
    (write path contents).Ends world
      (fun _ after => ∃ front, front <+: contents ∧
        after = { world.requested with files := world.files.put location (.file front) })
      fun _ after => after =
        { world.requested with files := world.files.put location (.file contents) } :=
  (write_settles (fun impossible : False => impossible.elim) names isFile contents).weaken_failure
    fun _ _ refused => refused.2

/-! ### New names -/

theorem createUnique_succ (directory : Path) (lead trail : String) (attempts : Nat)
    (world : World) : (createUnique directory lead trail (attempts + 1)).perform world =
      match (createNew (directory.child (lead ++ world.stems world.drawn ++ trail))).perform
          { world with drawn := world.drawn + 1 } with
      | (.ok (), after) => (.ok (lead ++ world.stems world.drawn), after)
      | (.error (.error .alreadyExists), after) =>
        (createUnique directory lead trail attempts).perform after
      | (.error failure, after) => (.error failure, after) := rfl

/-- A name that is taken is passed over, and any other refusal ends the search for one. -/
theorem createUnique_of_error {directory : Path} {lead trail : String} {world after : World}
    {reason : FileError} (created :
      (createNew (directory.child (lead ++ world.stems world.drawn ++ trail))).perform
        { world with drawn := world.drawn + 1 } = (.error (.error reason), after))
    (attempts : Nat) :
    (createUnique directory lead trail (attempts + 1)).perform world =
        (createUnique directory lead trail attempts).perform after ∨
      (createUnique directory lead trail (attempts + 1)).perform world =
        (.error (.error reason), after) := by
  by_cases isTaken : reason = .alreadyExists
  · subst isTaken
    left
    rw [createUnique_succ, created]
  · right
    rw [createUnique_succ, created]
    cases reason <;> first | rfl | exact absurd rfl isTaken

/-- A new file gets a name that was handed out and is created at a location that was free.
Where no new name can be had, the files are as they were. -/
theorem createUnique_settles {directory : Path} {lead trail : String} (attempts : Nat)
    {world : World} (willing : clear → world.Willing)
    (usable : clear → 0 < attempts ∧
      world.files.Free (directory.child (lead ++ world.stems world.drawn ++ trail))) :
    (createUnique directory lead trail attempts).Ends world
      (fun failure after => Refused clear failure after ∧
        ∃ drawn requests, after = { world with drawn, requests })
      fun base after => ∃ draw location requests, base = lead ++ world.stems draw ∧
        (clear → draw = world.drawn) ∧
        Names world.files (directory.child (base ++ trail)) location ∧
        world.files.lookup location = none ∧ world.requests ≤ requests ∧
        after = { world with
          drawn := draw + 1, requests, files := world.files.put location (.file []) } := by
  induction attempts generalizing world with
  | zero =>
    exact .of_failure rfl ⟨⟨fun isClear => absurd (usable isClear).1 (Nat.lt_irrefl 0), _, rfl⟩,
      world.drawn, world.requests, rfl⟩
  | succ attempts inductionHypothesis =>
    have created : (createNew (directory.child (lead ++ world.stems world.drawn ++ trail))).Ends
        { world with drawn := world.drawn + 1 } _ _ :=
      createNew_settles (fun isClear => (willing isClear).grants) fun isClear => (usable isClear).2
    rcases created.cases with ⟨⟨⟩, after, performed, location, names, nothing, rfl⟩ |
      ⟨failure, after, performed, ⟨hindered, reason, rfl⟩, rfl⟩
    · refine .of_value ?_ ⟨world.drawn, location, world.requests + 1, rfl, fun _ => rfl, names,
        nothing, Nat.le_succ _, rfl⟩
      rw [createUnique_succ, performed]
      rfl
    rcases createUnique_of_error performed attempts with retried | refused
    · refine .of_same retried (Ends.weaken (Ends.weaken_failure (inductionHypothesis
        (fun isClear => absurd isClear hindered) fun isClear => absurd isClear hindered) ?_) ?_)
      · rintro _ _ ⟨refused, drawn, requests, rfl⟩
        exact ⟨refused, drawn, requests, rfl⟩
      · rintro base _ ⟨draw, location, requests, isBase, -, names, nothing, later, rfl⟩
        exact ⟨draw, location, requests, isBase, fun isClear => absurd isClear hindered, names,
          nothing, Nat.le_of_succ_le later, rfl⟩
    · exact .of_failure refused ⟨⟨hindered, reason, rfl⟩, _, _, rfl⟩

theorem createUnique_ends {directory : Path} {lead trail : String} (attempts : Nat)
    {world : World} (willing : clear → world.Willing)
    (usable : clear → 0 < attempts ∧
      world.files.Free (directory.child (lead ++ world.stems world.drawn ++ trail))) :
    (createUnique directory lead trail attempts).Ends world (Refused clear)
      fun base after => ∃ draw location requests, base = lead ++ world.stems draw ∧
        (clear → draw = world.drawn) ∧
        Names world.files (directory.child (base ++ trail)) location ∧
        world.files.lookup location = none ∧ world.requests ≤ requests ∧
        after = { world with
          drawn := draw + 1, requests, files := world.files.put location (.file []) } :=
  (createUnique_settles attempts willing usable).weaken_failure fun _ _ refused => refused.1

/-- Whether or not the way is clear, where no new name can be had the files are as they were. -/
theorem createUnique_keeps (directory : Path) (lead trail : String) (attempts : Nat)
    (world : World) : (createUnique directory lead trail attempts).Ends world
      (fun _ after => ∃ drawn requests, after = { world with drawn, requests })
      fun base after => ∃ draw location requests, base = lead ++ world.stems draw ∧
        Names world.files (directory.child (base ++ trail)) location ∧
        world.files.lookup location = none ∧ world.requests ≤ requests ∧
        after = { world with
          drawn := draw + 1, requests, files := world.files.put location (.file []) } := by
  refine ((createUnique_settles attempts (fun impossible : False => impossible.elim)
    fun impossible => impossible.elim).weaken_failure fun _ _ refused => refused.2).weaken ?_
  rintro base after ⟨draw, location, requests, isBase, -, rest⟩
  exact ⟨draw, location, requests, isBase, rest⟩

end Action

end InvertedIndex
