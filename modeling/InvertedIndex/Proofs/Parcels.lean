/-
This file proves what the steps of a build do to the preindexes that are set aside. Each of
them is a parcel: three files that hold lists. Between the steps the files are those that
were there when the build started, and besides them exactly the files of the parcels. A
shard adds a parcel, a merge puts one parcel in the place of two, and finishing the last one
publishes its lists; only a refusal by the system makes a step fail.
-/

import InvertedIndex.Build
import InvertedIndex.Proofs.Finalization
import InvertedIndex.Proofs.Possessions

namespace InvertedIndex

open FileSystem

/-! ### Failures of a build -/

/-- A build failed because the system refused an operation on files. -/
def Obstructed (clear : Prop) (failure : Failure TracedError) : Prop :=
  ¬ clear ∧ ∃ contexts reason, failure = .error ⟨contexts, .storage (.files reason)⟩

theorem Action.Ends.during {α : Type} {clear : Prop} {action : Action StorageError α}
    {world : World} {good : α → World → Prop} (ends : action.Ends world (Hindered clear) good)
    (context : Context) :
    (action.during context).Ends world (fun failure _ => Obstructed clear failure) good := by
  refine ends.mapError fun failure after hindered => ?_
  obtain ⟨blocked, reason, rfl⟩ := hindered
  exact ⟨blocked, [context], reason, rfl⟩

/-- An operation that has already succeeded is done. -/
theorem Action.Ends.during_ok_bind {α β : Type} {value : α} {context : Context}
    {next : α → Action TracedError β} {world : World}
    {expected : Failure TracedError → World → Prop} {good : β → World → Prop}
    (ends : (next value).Ends world expected good) :
    ((Action.ofResult (.ok value) : Action StorageError α).during context >>= next).Ends world
      expected good := .of_same rfl ends

/-! ### Parcels in the files -/

/-- A preindex that is set aside: its files, where they are, and the lists in them. -/
structure Parcel where
  files : PreindexFiles
  place : Placement
  lists : List (Term × List Posting)

/-- The locations of all files of some parcels. -/
def locationsOf (parcels : List Parcel) : List Location :=
  parcels.flatMap fun parcel => parcel.place.all

/-- A parcel as a possession. -/
def Parcel.possession (parcel : Parcel) : Possession := ⟨parcel.files, parcel.place⟩

@[simp] theorem placesOf_possessions (parcels : List Parcel) :
    placesOf (parcels.map Parcel.possession) = locationsOf parcels := List.flatMap_map ..

/-- What a build has added to the files it started from is these parcels. -/
structure Holding (paths : String → List Path) (draws : Nat) (clear : Prop)
    (parcels : List Parcel) (start world : World) : Prop where
  stems : world.stems = start.stems
  supplied : clear → Supplied paths draws world
  directories : SameDirectories start.files world.files
  holds : ∀ parcel ∈ parcels, parcel.files.Holds parcel.place parcel.lists world.files
  handed_out : ∀ parcel ∈ parcels, ∃ draw, ∀ path ∈ parcel.files.all,
    path ∈ paths (start.stems draw)
  fresh : ∀ location ∈ locationsOf parcels, start.files.lookup location = none
  distinct : (locationsOf parcels).Nodup
  elsewhere : ∀ location, location ∉ locationsOf parcels →
    world.files.lookup location = start.files.lookup location

namespace Holding

variable {paths : String → List Path} {draws : Nat} {clear : Prop} {parcels : List Parcel}
  {start world after : World}

theorem init (supplied : clear → Supplied paths draws start) :
    Holding paths draws clear [] start start where
  stems := rfl
  supplied := supplied
  directories := .refl _
  holds := nofun
  handed_out := nofun
  fresh := nofun
  distinct := .nil
  elsewhere _ _ := rfl

/-- Parcels are possessions whose lists are known. -/
theorem owning (holding : Holding paths draws clear parcels start world) :
    Owning (parcels.map Parcel.possession) start world where
  stems := holding.stems
  directories := holding.directories
  present := List.forall_mem_map.mpr fun parcel member => (holding.holds parcel member).present
  fresh := placesOf_possessions parcels ▸ holding.fresh
  distinct := placesOf_possessions parcels ▸ holding.distinct
  elsewhere := placesOf_possessions parcels ▸ holding.elsewhere

theorem of_owning (owning : Owning (parcels.map Parcel.possession) start world)
    (supplied : clear → Supplied paths draws world)
    (holds : ∀ parcel ∈ parcels, parcel.files.Holds parcel.place parcel.lists world.files)
    (handed_out : ∀ parcel ∈ parcels, ∃ draw, ∀ path ∈ parcel.files.all,
      path ∈ paths (start.stems draw)) :
    Holding paths draws clear parcels start world where
  stems := owning.stems
  supplied := supplied
  directories := owning.directories
  holds := holds
  handed_out := handed_out
  fresh := placesOf_possessions parcels ▸ owning.fresh
  distinct := placesOf_possessions parcels ▸ owning.distinct
  elsewhere := placesOf_possessions parcels ▸ owning.elsewhere

/-- Parcels may be listed in any order. -/
theorem perm {others : List Parcel} (holding : Holding paths draws clear parcels start world)
    (same : parcels.Perm others) : Holding paths draws clear others start world :=
  .of_owning (holding.owning.perm (same.map _)) holding.supplied
    (fun parcel member => holding.holds parcel (same.mem_iff.mpr member))
    fun parcel member => holding.handed_out parcel (same.mem_iff.mpr member)

/-- The log may grow. -/
theorem log (holding : Holding paths draws clear parcels start world) (lines : List LogLine) :
    Holding paths draws clear parcels start { world with log := lines } where
  stems := holding.stems
  supplied isClear := (holding.supplied isClear).of_changesOnly ⟨rfl, rfl, Nat.le_refl _⟩ rfl
    (.refl world.files) fun _ isTouched => absurd isTouched List.not_mem_nil
  directories := holding.directories
  holds := holding.holds
  handed_out := holding.handed_out
  fresh := holding.fresh
  distinct := holding.distinct
  elsewhere := holding.elsewhere

/-- A new preindex is one more parcel. -/
theorem add {earlier : Nat} (holding : Holding paths earlier clear parcels start world)
    {parcel : Parcel}
    (added : parcel.files.Added paths draws clear parcel.place parcel.lists world after) :
    Holding paths draws clear (parcel :: parcels) start after := by
  have owning : Owning ((parcel :: parcels).map Parcel.possession) start after :=
    holding.owning.add added.precedes.stems added.holds.present added.fresh added.only
  refine .of_owning owning added.supplied (fun other member => ?_) fun other member => ?_
  · rcases List.mem_cons.mp member with rfl | member
    · exact added.holds
    · exact (holding.holds other member).of_changesOnly added.only
        (owning.apart (List.mem_map_of_mem member))
  · rcases List.mem_cons.mp member with rfl | member
    · obtain ⟨draw, handedOut⟩ := added.handed_out
      exact ⟨draw, holding.stems ▸ handedOut⟩
    · exact holding.handed_out other member

/-- A parcel whose files were removed is gone. -/
theorem remove {parcel : Parcel}
    (holding : Holding paths draws clear (parcel :: parcels) start world) :
    Holding paths draws clear parcels start
      { world with files := parcel.place.clear world.files } := by
  have held := holding.holds parcel List.mem_cons_self
  have only := held.clear_changesOnly
  refine .of_owning holding.owning.clear
    (fun isClear => (holding.supplied isClear).of_changesOnly ⟨rfl, rfl, Nat.le_refl _⟩ rfl only
      fun location member _ => held.lookup_clear location member)
    (fun other member => ?_)
    fun other member => holding.handed_out other (List.mem_cons_of_mem _ member)
  exact (holding.holds other (List.mem_cons_of_mem _ member)).of_changesOnly only
    (holding.owning.apart (List.mem_map_of_mem member))

/-- The targets are not among the places of a parcel. -/
theorem apart_of_published {docsTarget wordsTarget : Path} {docsPlace wordsPlace : Location}
    {parcel : Parcel} {lists : List (Term × List Posting)}
    (holding : Holding paths draws clear [parcel] start world)
    (separate : Separate paths docsTarget wordsTarget start.stems start.files)
    (published : Preindex.Published docsTarget wordsTarget docsPlace wordsPlace lists world.files
      after.files) : ∀ location ∈ parcel.place.all, location ∉ [docsPlace, wordsPlace] := by
  intro location member isTarget
  have held := holding.holds parcel List.mem_cons_self
  obtain ⟨draw, handedOut⟩ := holding.handed_out parcel List.mem_cons_self
  obtain ⟨path, isPath, names⟩ := held.exists_path location member
  have there := separate.of_sameDirectories
    (holding.directories.trans published.only.directories)
  have names' := names.of_sameDirectories published.only.directories
  simp only [List.mem_cons, List.not_mem_nil, or_false] at isTarget
  rcases isTarget with rfl | rfl
  · exact there.docs draw path (handedOut path isPath) location names' published.docs_names
  · exact there.words draw path (handedOut path isPath) location names' published.words_names

/-- Once the last parcel is deleted, only the targets have changed since the start. -/
theorem published_of_clear {docsTarget wordsTarget : Path} {docsPlace wordsPlace : Location}
    {parcel : Parcel} {lists : List (Term × List Posting)} {between : FileSystem}
    (holding : Holding paths draws clear [parcel] start world)
    (kept : parcel.files.Holds parcel.place parcel.lists between)
    (published : Preindex.Published docsTarget wordsTarget docsPlace wordsPlace lists world.files
      between)
    (apart : ∀ location ∈ parcel.place.all, location ∉ [docsPlace, wordsPlace]) :
    Preindex.Published docsTarget wordsTarget docsPlace wordsPlace lists start.files
      (parcel.place.clear between) := by
  have only := published.only
  have cleared := kept.clear_changesOnly
  have outside (location : Location) (isTarget : location ∈ [docsPlace, wordsPlace]) :
      (parcel.place.clear between).lookup location = between.lookup location :=
    cleared.elsewhere location fun member => apart location member isTarget
  refine {
    docs_names := published.docs_names.of_sameDirectories cleared.directories
    words_names := published.words_names.of_sameDirectories cleared.directories
    docs_file := (outside _ List.mem_cons_self).trans published.docs_file
    words_file := (outside _ (List.mem_cons_of_mem _ List.mem_cons_self)).trans
      published.words_file
    only := ⟨holding.directories.trans (only.directories.trans cleared.directories),
      fun location untouched => ?_⟩ }
  have others : locationsOf [parcel] = parcel.place.all := List.append_nil _
  by_cases isGone : location ∈ parcel.place.all
  · rw [kept.lookup_clear location isGone, holding.fresh location (others ▸ isGone)]
  · rw [cleared.elsewhere location isGone, only.elsewhere location untouched,
      holding.elsewhere location (others ▸ isGone)]

end Holding

/-! ### The steps of a build -/

namespace Builder

variable {builder : Builder} {paths : String → List Path} {draws : Nat} {clear : Prop}
  {parcels : List Parcel} {start world : World}

/-- Writing lists adds a parcel with these lists. -/
theorem writeNew_ends {directory : Path} {lists : List (Term × List Posting)}
    (holding : Holding paths (draws + 1) clear parcels start world)
    (within : PreindexFiles.Within paths directory start.files)
    (ascending : AscendingBy Prod.fst lists) (small : 2 * countPostings lists < wordLimit) :
    (Preindex.writeNew directory lists).Ends world (Hindered clear) fun preindex after =>
      ∃ parcel, parcel.lists = lists ∧ preindex = .ofLists parcel.files lists ∧
        Holding paths draws clear (parcel :: parcels) start after := by
  refine (Preindex.writeNew_ends (within.of_sameDirectories holding.directories) holding.supplied
    ascending small).weaken ?_
  rintro preindex after ⟨owned, place, isPreindex, added⟩
  have more : Holding paths draws clear (⟨owned, place, lists⟩ :: parcels) start after :=
    holding.add added
  exact ⟨_, rfl, isPreindex, more⟩

/-- A shard that can be read adds a parcel with its lists. -/
theorem constructShard_ends {shard : Path} {entries : List Entry}
    (holding : Holding paths (draws + 1) clear parcels start world)
    (within : PreindexFiles.Within paths builder.tempDirectory start.files)
    (opened : builder.source.open shard world.files = .ok (entries.map .ok))
    (small : 2 * countPostings (Preindex.listsOf entries builder.renumber builder.backend) <
      wordLimit) :
    (builder.constructShard false shard).Ends world (fun failure _ => Obstructed clear failure)
      fun parked after => ∃ parcel, parked = ⟨parcel.files⟩ ∧
        parcel.lists = Preindex.listsOf entries builder.renumber builder.backend ∧
        Holding paths draws clear (parcel :: parcels) start after := by
  rw [constructShard, if_neg (by decide)]
  have items : ((Action.inspect (builder.source.open shard)).during (.openShard shard)).Ends world
      (fun failure _ => Obstructed clear failure)
      fun items after => items = entries.map .ok ∧ after = world :=
    (Action.Ends.inspect_ends opened ⟨rfl, rfl⟩).during _
  refine items.bind ?_
  rintro _ _ ⟨rfl, rfl⟩
  rw [Preindex.construct, mapM_id_ok]
  have ascending := (listsOf_denotes entries builder.renumber builder.backend).terms
  refine ((writeNew_ends holding within ascending small).during _).bind ?_
  rintro preindex after ⟨parcel, isLists, rfl, more⟩
  exact Action.Ends.log_bind (.pure ⟨parcel, rfl, isLists, more.log _⟩)

/-- A union that is written adds a parcel and leaves the two that it comes from. -/
theorem merge_ends {directory : Path} {left right : Parcel} {first second : Listing}
    (holding : Holding paths (draws + 1) clear parcels start world)
    (within : PreindexFiles.Within paths directory start.files)
    (leftDenotes : Denotes left.lists first) (rightDenotes : Denotes right.lists second)
    (small : 2 * countPostings (uniteTerms left.lists right.lists) < wordLimit) :
    (Preindex.merge directory (.ofLists left.files left.lists)
      (.ofLists right.files right.lists)).Ends world (Hindered clear) fun preindex after =>
      ∃ parcel, parcel.lists = uniteTerms left.lists right.lists ∧
        preindex = .ofLists parcel.files (uniteTerms left.lists right.lists) ∧
        Holding paths draws clear (parcel :: parcels) start after := by
  obtain ⟨leftSmall, rightSmall⟩ := countPostings_le_uniteTerms left.lists right.lists
  rw [Preindex.merge, Preindex.lists_ofLists (by omega), Preindex.lists_ofLists (by omega)]
  exact Action.Ends.ofResult_ok_bind (Action.Ends.ofResult_ok_bind
    (writeNew_ends holding within (leftDenotes.unite rightDenotes).terms small))

/-- Merging puts one parcel with the union in the place of two. -/
theorem mergePair_ends {left right : Parcel} {first second : Listing}
    (holding : Holding paths (draws + 1) clear (left :: right :: parcels) start world)
    (within : PreindexFiles.Within paths builder.tempDirectory start.files)
    (leftDenotes : Denotes left.lists first) (rightDenotes : Denotes right.lists second)
    (small : 2 * countPostings (uniteTerms left.lists right.lists) < wordLimit) :
    (builder.mergePair ⟨left.files⟩ ⟨right.files⟩).Ends world
      (fun failure _ => Obstructed clear failure) fun parked after =>
      ∃ parcel, parked = ⟨parcel.files⟩ ∧ parcel.lists = uniteTerms left.lists right.lists ∧
        Holding paths draws clear (parcel :: parcels) start after := by
  obtain ⟨leftSmall, rightSmall⟩ := countPostings_le_uniteTerms left.lists right.lists
  have leftHolds := holding.holds left List.mem_cons_self
  have rightHolds := holding.holds right (List.mem_cons_of_mem _ List.mem_cons_self)
  have leftOpened : (ParkedPreindex.reopen ⟨left.files⟩).Ends world (Hindered clear)
      fun preindex after => preindex = .ofLists left.files left.lists ∧ after = world :=
    .of_value (Preindex.openFiles_eq leftHolds leftDenotes.terms (by omega)) ⟨rfl, rfl⟩
  have rightOpened : (ParkedPreindex.reopen ⟨right.files⟩).Ends world (Hindered clear)
      fun preindex after => preindex = .ofLists right.files right.lists ∧ after = world :=
    .of_value (Preindex.openFiles_eq rightHolds rightDenotes.terms (by omega)) ⟨rfl, rfl⟩
  rw [mergePair]
  refine ((leftOpened.during _).cleaningUp _ fun _ _ obstructed => obstructed).bind ?_
  rintro _ _ ⟨rfl, rfl⟩
  refine ((rightOpened.during _).cleaningUp _ fun _ _ obstructed => obstructed).bind ?_
  rintro _ _ ⟨rfl, rfl⟩
  refine (merge_ends holding within leftDenotes rightDenotes small).outcome_bind ?_ ?_
  · rintro preindex between ⟨parcel, isLists, rfl, merged⟩
    -- Both inputs are removed, which leaves the union and the other parcels.
    have leftFirst := merged.perm (.swap left parcel (right :: parcels))
    refine .outcome_bind_of_value (leftFirst.holds left List.mem_cons_self).present.delete_eq ?_
    have rightFirst := leftFirst.remove.perm (.swap right parcel parcels)
    refine .outcome_bind_of_value (rightFirst.holds right List.mem_cons_self).present.delete_eq ?_
    refine .during_ok_bind ?_
    have removed : (do
        Action.ofResult (.ok ())
        Action.ofResult (.ok ()) : Action StorageError Unit).Ends
        { between with files := right.place.clear (left.place.clear between.files) }
        (Hindered clear) fun _ last =>
          Holding paths draws clear (parcel :: parcels) start last := by
      refine .ofResult_ok_bind ?_
      exact .ofResult_ok rightFirst.remove
    refine ((removed.during _).cleaningUp _ fun _ _ obstructed => obstructed).bind ?_
    intro _ last held
    exact .log_bind (.pure ⟨parcel, rfl, isLists, held.log _⟩)
  · intro failure between hindered
    refine .outcome_bind_of_any fun _ _ => .outcome_bind_of_any fun _ last => ?_
    have failed : (Action.ofResult (.error failure) : Action StorageError Preindex).Ends last
        (Hindered clear) fun _ _ => False := .ofResult_error hindered
    exact .bind_of_fails (failed.during _)

/-- Finishing the last parcel publishes its lists and leaves nothing else behind. -/
theorem finalizeMerged_ends (builder : Builder) {parcel : Parcel}
    (holding : Holding paths (draws + 2) clear [parcel] start world)
    (publishable : Publishable parcel.lists)
    (docsWithin : ∀ stem, (builder.docsTarget.parent.fromRoot start.files.workingDirectory).child
      (".tmp" ++ stem) ∈ paths stem)
    (wordsWithin : ∀ stem, (builder.wordsTarget.parent.fromRoot start.files.workingDirectory).child
      (".tmp" ++ stem) ∈ paths stem)
    (separate : Separate paths builder.docsTarget builder.wordsTarget start.stems start.files)
    (docsWritable : clear → start.files.Writable builder.docsTarget)
    (wordsWritable : clear → start.files.Writable builder.wordsTarget) :
    (builder.finalizeMerged ⟨parcel.files⟩).Ends world (fun failure _ => Obstructed clear failure)
      fun report after => report = Preindex.reportOf parcel.lists ∧ ∃ docsPlace wordsPlace,
        Preindex.Published builder.docsTarget builder.wordsTarget docsPlace wordsPlace parcel.lists
          start.files after.files := by
  have same := holding.directories
  have holds := holding.holds parcel List.mem_cons_self
  have workingDirectory := same.workingDirectory
  have opened : (ParkedPreindex.reopen ⟨parcel.files⟩).Ends world (Hindered clear)
      fun preindex after => preindex = .ofLists parcel.files parcel.lists ∧ after = world :=
    .of_value (Preindex.openFiles_eq holds publishable.terms publishable.small) ⟨rfl, rfl⟩
  have finalized := Preindex.finalize_ends parcel.files publishable.finishable
    (by rwa [workingDirectory]) (by rwa [workingDirectory]) holding.supplied
    (holding.stems ▸ separate.of_sameDirectories same)
    (fun isClear => (docsWritable isClear).of_sameDirectories same)
    (fun isClear => (wordsWritable isClear).of_sameDirectories same)
  rw [finalizeMerged]
  refine (opened.during _).bind ?_
  rintro _ _ ⟨rfl, rfl⟩
  refine finalized.outcome_bind ?_ ?_
  · rintro report between ⟨isReport, docsPlace, wordsPlace, published⟩
    have apart := holding.apart_of_published separate published
    have kept := holds.of_changesOnly published.only apart
    refine .outcome_bind_of_value kept.present.delete_eq ?_
    exact .during_ok_bind (.during_ok_bind (.pure ⟨isReport, docsPlace, wordsPlace,
      holding.published_of_clear kept published apart⟩))
  · intro failure between hindered
    refine .outcome_bind_of_any fun _ last => ?_
    have failed : (Action.ofResult (.error failure) : Action StorageError Report).Ends last
        (Hindered clear) fun _ _ => False := .ofResult_error hindered
    exact .bind_of_fails (failed.during _)

end Builder

end InvertedIndex
